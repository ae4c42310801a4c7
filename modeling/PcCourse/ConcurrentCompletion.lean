import PcCourse.StockLedger
import Mathlib.Data.List.Forall2
import Mathlib.Data.List.Sublists

/-! `complete_order` on several connections at once. A transaction runs the statements of
`CompleteOrder` one by one; its writes stay with it, under row locks, until it commits. -/
namespace PcCourse.ConcurrentCompletion

open Grouping Transition StockLedger

/-- Where a transaction stands between the statements of `CompleteOrder`. After the UPDATE
of `Item` it holds what the subquery gave and the rows it has written. -/
inductive Phase where
  | begun
  | passed
  | skipped
  | failed
  | subtracted (tbl : List (Int × Nat)) (rows : List Item)
  | stamped (tbl : List (Int × Nat)) (rows : List Item)
  | committed (tbl : List (Int × Nat))
  | rolledBack
  deriving DecidableEq, Repr

structure Task where
  order : Int
  at_ : Occasion
  phase : Phase

structure Server where
  committed : Db
  tasks : List Task

inductive Statement where
  | check
  | updateItem
  | updateOrder
  | commit
  | rollback
  deriving DecidableEq, Repr

/-- What an open transaction takes from the items once it commits. -/
def Phase.pending : Phase → List (Int × Nat)
  | .subtracted tbl _ | .stamped tbl _ => tbl
  | _ => []

def Phase.rows : Phase → List Item
  | .subtracted _ rows | .stamped _ rows => rows
  | _ => []

def Phase.booked : Phase → List (Int × Nat)
  | .committed tbl => tbl
  | _ => []

def takes (tbl : List (Int × Nat)) (item : Int) : Nat :=
  match tbl.find? (fun entry => entry.1 = item) with
  | none => 0
  | some entry => entry.2

def updatedRows (tbl : List (Int × Nat)) (db : Db) : List Item :=
  db.item.filter fun row => tbl.any fun entry => entry.1 = row.id

/-- Another open transaction has written a row that this UPDATE would write. -/
def itemsLocked (tbl : List (Int × Nat)) (others : List Task) : Bool :=
  others.any fun u => u.phase.rows.any fun row => tbl.any fun entry => entry.1 = row.id

def orderLocked (order : Int) (others : List Task) : Bool :=
  others.any fun u => match u.phase with
    | .stamped _ _ => u.order = order
    | _ => false

/-- The phase after a statement. A statement that has to wait for a lock, or that is not
the next one of the transaction, gives none. -/
def Task.next (t : Task) (others : List Task) (db : Db) (statement : Statement) : Option Phase :=
  match statement, t.phase with
  | .check, .begun => some (if isCompleted (some t.order) db then .skipped else .passed)
  | .updateItem, .passed =>
    let tbl := completionTable t.at_.pick (some t.order) db
    if itemsLocked tbl others then none
    else match subtractOrder t.at_.pick (some t.order) db with
      | .ok after => some (.subtracted tbl (updatedRows tbl after))
      | .error _ => some .failed
  | .updateOrder, .subtracted tbl rows =>
    if orderLocked t.order others then none else some (.stamped tbl rows)
  | .commit, .skipped => some (.committed [])
  | .commit, .stamped tbl _ => some (.committed tbl)
  | .rollback, .committed _ => none
  | .rollback, _ => some .rolledBack
  | _, _ => none

def written (rows : List Item) (row : Item) : Item :=
  (rows.find? fun new => new.id = row.id).getD row

def install (rows : List Item) (db : Db) : Db := { db with item := db.item.map (written rows) }

def Task.effect (t : Task) (statement : Statement) (db : Db) : Db :=
  match statement, t.phase with
  | .commit, .stamped _ rows => stampOrder t.at_.now (some t.order) (install rows db)
  | _, _ => db

def step (move : Nat × Statement) (s : Server) : Server :=
  match s.tasks[move.1]? with
  | none => s
  | some t =>
    match t.next (s.tasks.eraseIdx move.1) s.committed move.2 with
    | none => s
    | some phase => ⟨t.effect move.2 s.committed, s.tasks.set move.1 { t with phase }⟩

def start (db : Db) (requests : List (Int × Occasion)) : Server :=
  ⟨db, requests.map fun (order, at_) => ⟨order, at_, .begun⟩⟩

def run (db : Db) (requests : List (Int × Occasion)) (moves : List (Nat × Statement)) : Server :=
  execute step moves (start db requests)

def Task.took (t : Task) : Bool := t.phase.booked.any fun entry => entry.2 ≠ 0

/-- The stock is what committed transactions of different orders leave of it. -/
def SubtractedAtMostOnce (db : Db) (s : Server) : Prop :=
  ∃ done ∈ s.tasks.sublists, (done.map Task.order).Nodup ∧
    ∀ row ∈ s.committed.item,
      (row.countOnWarehouse : Int) + (done.map fun t => takes t.phase.booked row.id).sum =
        openingBook db row.id

/-- A transaction that takes something commits only while its order is not completed. -/
def StillOpen (s : Server) (move : Nat × Statement) : Prop :=
  move.2 = .commit → ∀ t ∈ s.tasks[move.1]?, isCompleted (some t.order) s.committed = true →
    t.phase.pending.all (fun entry => entry.2 = 0) = true

instance (s : Server) (move : Nat × Statement) : Decidable (StillOpen s move) :=
  inferInstanceAs (Decidable (_ → _))

section
variable {c : Collation} {db : Db} {tbl : List (Int × Nat)} {rows : List Item}

/-- Committing the written rows takes from each item what the subquery gave for it. -/
def Held (tbl : List (Int × Nat)) (rows : List Item) (db : Db) : Prop :=
  ∀ row ∈ db.item,
    written rows row = { row with countOnWarehouse := (written rows row).countOnWarehouse } ∧
    ((written rows row).countOnWarehouse : Int) = row.countOnWarehouse + -(takes tbl row.id : Int)

theorem held_nil : Held [] [] db := by
  intro row _
  simp [written, takes]

theorem Held.recounted (held : Held tbl rows db) :
    Recounted (fun i => -(takes tbl i : Int)) db.item (install rows db).item := by
  rw [Recounted, install, List.forall₂_map_right_iff, List.forall₂_same]
  exact held

theorem written_of_missing {row : Item} (missing : ∀ new ∈ rows, new.id ≠ row.id) :
    written rows row = row := by
  have none : rows.find? (fun new => new.id = row.id) = none := by
    simpa [List.find?_eq_none] using missing
  rw [written, none, Option.getD_none]

theorem written_of_mem {row new : Item} (unique : (rows.map Item.id).Nodup)
    (member : new ∈ rows) (same : new.id = row.id) : written rows row = new := by
  have one := filter_key unique member
  rw [written, ← List.head?_filter, ← same, one]
  rfl

theorem Held.takes_nothing (held : Held tbl rows db) {row : Item} (member : row ∈ db.item)
    (missing : ∀ new ∈ rows, new.id ≠ row.id) : takes tbl row.id = 0 := by
  have count := (held row member).2
  rw [written_of_missing missing] at count
  omega

theorem held_of_subtractOrder (valid : Integrity c db) {pick : Pick Line} {id : Option Int}
    {after : Db} (done : subtractOrder pick id db = .ok after) :
    Held (completionTable pick id db) (updatedRows (completionTable pick id db) after) db := by
  obtain ⟨item,rfl,counts⟩ := subtractOrder_eq_ok done
  have unique : ((updatedRows (completionTable pick id db) { db with item }).map Item.id).Nodup := by
    refine List.Nodup.sublist (List.Sublist.map _ List.filter_sublist) ?_
    rw [counts.column fun _ _ => rfl]
    exact valid.items
  intro row member
  obtain ⟨new,inside,shape,value⟩ := counts.image member
  have same : new.id = row.id := by rw [shape]
  by_cases hit : (completionTable pick id db).any fun entry => entry.1 = row.id
  · have updated : new ∈ updatedRows (completionTable pick id db) { db with item } :=
      List.mem_filter.mpr ⟨inside, by rw [same]; exact hit⟩
    rw [written_of_mem unique updated same]
    exact ⟨shape, value⟩
  · have missing : ∀ other ∈ updatedRows (completionTable pick id db) { db with item },
        other.id ≠ row.id := by
      intro other isUpdated equal
      exact hit (equal ▸ (List.mem_filter.mp isUpdated).2)
    have none : (completionTable pick id db).find? (fun entry => entry.1 = row.id) = none := by
      rw [List.find?_eq_none]
      exact fun entry isEntry same => hit (List.any_eq_true.mpr ⟨entry, isEntry, same⟩)
    rw [written_of_missing missing]
    simp [takes, none]

theorem written_id (row : Item) : (written rows row).id = row.id := by
  rw [written]
  cases found : rows.find? (fun new => new.id = row.id) with
  | none => rfl
  | some new => simpa using List.find?_some found

/-- Rows locked by one transaction are as they were when another one commits. -/
theorem Held.install (held : Held tbl rows db) {others : List Item}
    (apart : ∀ row ∈ rows, ∀ other ∈ others, row.id ≠ other.id) :
    Held tbl rows (install others db) := by
  intro row member
  obtain ⟨old,inside,rfl⟩ := List.mem_map.mp member
  by_cases locked : ∃ other ∈ others, other.id = old.id
  · obtain ⟨other,isOther,same⟩ := locked
    have missing : ∀ new ∈ rows, new.id ≠ old.id := fun new isNew equal =>
      apart new isNew other isOther (equal.trans same.symm)
    have zero := held.takes_nothing inside missing
    rw [written_of_missing (by rw [written_id]; exact missing)]
    refine ⟨rfl, ?_⟩
    rw [written_id, zero]
    simp
  · rw [written_of_missing fun other isOther same => locked ⟨other, isOther, same⟩]
    exact held old inside

theorem order_of_entry (valid : Integrity c db) {pick : Pick Line} {order : Int}
    {entry : Int × Nat} (member : entry ∈ completionTable pick (some order) db) :
    order ∈ db.newOrder.map NewOrder.id := by
  obtain ⟨group,isGroup,rfl⟩ := List.mem_map.mp member
  have line := (mem_of_mem_group isGroup List.mem_cons_self).1
  have ofOrder := List.mem_filter.mp (mem_join.mp line).1
  have same : group.1.1.orderId = order := by simpa using ofOrder.2
  exact same ▸ valid.lineOrder _ ofOrder.1

theorem isCompleted_stamp {now order : Int} (known : order ∈ db.newOrder.map NewOrder.id) :
    isCompleted (some order) (stampOrder now (some order) db) = true := by
  obtain ⟨o,inside,same⟩ := List.mem_map.mp known
  rw [isCompleted, List.any_eq_true]
  exact ⟨_, List.mem_map_of_mem inside, by simp [same]⟩

theorem isCompleted_mono {now : Int} {id other : Option Int} (completed : isCompleted id db = true) :
    isCompleted id (stampOrder now other db) = true := by
  rw [isCompleted, List.any_eq_true] at completed ⊢
  obtain ⟨o,inside,both⟩ := completed
  refine ⟨_, List.mem_map_of_mem inside, ?_⟩
  split
  · simpa using (of_decide_eq_true both).1
  · exact both

end

structure Invariant (c : Collation) (opening : Db) (s : Server) : Prop where
  keys : Integrity c s.committed
  held : ∀ t ∈ s.tasks, Held t.phase.pending t.phase.rows s.committed
  known : ∀ t ∈ s.tasks, ∀ entry ∈ t.phase.pending,
    t.order ∈ s.committed.newOrder.map NewOrder.id
  apart : s.tasks.Pairwise fun t u => ∀ row ∈ t.phase.rows, ∀ other ∈ u.phase.rows, row.id ≠ other.id
  stock : ∀ row ∈ s.committed.item,
    (row.countOnWarehouse : Int) + (s.tasks.map fun t => takes t.phase.booked row.id).sum =
      openingBook opening row.id
  once : ((s.tasks.filter Task.took).map Task.order).Nodup
  completed : ∀ t ∈ s.tasks, t.took = true → isCompleted (some t.order) s.committed = true

section
variable {c : Collation} {opening db : Db} {before after : List Task} {t : Task} {phase : Phase}

theorem start_invariant (valid : Integrity c db) (requests : List (Int × Occasion)) :
    Invariant c db (start db requests) := by
  have begun : ∀ t ∈ (start db requests).tasks, t.phase = .begun := by
    intro t member
    obtain ⟨request,-,rfl⟩ := List.mem_map.mp member
    rfl
  have none : (start db requests).tasks.filter Task.took = [] := by
    rw [List.filter_eq_nil_iff]
    intro t member
    simp [Task.took, begun t member, Phase.booked]
  constructor
  · exact valid
  · intro t member
    rw [begun t member]
    exact held_nil
  · intro t member entry isEntry
    simp [begun t member, Phase.pending] at isEntry
  · rw [List.pairwise_iff_forall_sublist]
    intro t u pair row member
    have := begun t (pair.subset List.mem_cons_self)
    simp [this, Phase.rows] at member
  · intro row member
    have zero : ((start db requests).tasks.map fun t => takes t.phase.booked row.id).sum = 0 := by
      rw [List.sum_eq_zero_iff_forall_eq_nat]
      intro n summand
      obtain ⟨t,isTask,rfl⟩ := List.mem_map.mp summand
      rw [begun t isTask]
      rfl
    rw [zero]
    simpa using opening_balanced valid row member
  · rw [none]
    exact List.nodup_nil
  · intro t member took
    simp [Task.took, begun t member, Phase.booked] at took

theorem forall_replace {p : Task → Prop} {u : Task} (all : ∀ v ∈ before ++ t :: after, p v)
    (new : p u) : ∀ v ∈ before ++ u :: after, p v := by
  intro v member
  rcases List.mem_append.mp member with inside | inside
  · exact all v (List.mem_append_left _ inside)
  · rcases List.mem_cons.mp inside with rfl | inside
    · exact new
    · exact all v (List.mem_append_right _ (List.mem_cons_of_mem _ inside))

/-- Locks exclude each other, so it does not matter where in the list a holder stands. -/
theorem apart_middle :
    ((before ++ t :: after).Pairwise fun t u =>
      ∀ row ∈ t.phase.rows, ∀ other ∈ u.phase.rows, row.id ≠ other.id) ↔
    (∀ u ∈ before ++ after, ∀ row ∈ t.phase.rows, ∀ other ∈ u.phase.rows, row.id ≠ other.id) ∧
      (before ++ after).Pairwise fun t u =>
        ∀ row ∈ t.phase.rows, ∀ other ∈ u.phase.rows, row.id ≠ other.id := by
  rw [List.pairwise_middle fun apart row inside other isOther same =>
    apart other isOther row inside same.symm, List.pairwise_cons]

theorem Invariant.advance (valid : Invariant c opening ⟨db, before ++ t :: after⟩)
    (uncommitted : phase.booked = t.phase.booked)
    (held : Held phase.pending phase.rows db)
    (known : ∀ entry ∈ phase.pending, t.order ∈ db.newOrder.map NewOrder.id)
    (free : ∀ u ∈ before ++ after, ∀ row ∈ phase.rows, ∀ other ∈ u.phase.rows,
      row.id ≠ other.id) :
    Invariant c opening ⟨db, before ++ { t with phase } :: after⟩ := by
  have took : Task.took { t with phase } = t.took := by
    rw [Task.took, Task.took, uncommitted]
  constructor
  · exact valid.keys
  · exact forall_replace valid.held held
  · exact forall_replace valid.known known
  · exact apart_middle.mpr ⟨free, (apart_middle.mp valid.apart).2⟩
  · intro row member
    simpa [uncommitted] using valid.stock row member
  · have once := valid.once
    simp only [List.filter_append, List.filter_cons] at once ⊢
    rw [took]
    split at once
    next isTook => simpa [isTook] using once
    next notTook => simpa [notTook] using once
  · refine forall_replace valid.completed fun isTook => ?_
    exact valid.completed t (by simp) (took ▸ isTook)

@[simp] theorem booked_committed (tbl : List (Int × Nat)) : (Phase.committed tbl).booked = tbl := rfl

theorem took_committed (tbl : List (Int × Nat)) :
    Task.took { t with phase := .committed tbl } = !tbl.all fun entry => entry.2 = 0 := by
  simp [Task.took, List.not_all_eq_any_not]

theorem Invariant.commit (valid : Invariant c opening ⟨db, before ++ t :: after⟩)
    {tbl : List (Int × Nat)} {rows : List Item} (stamped : t.phase = .stamped tbl rows)
    (still : isCompleted (some t.order) db = true → tbl.all (fun entry => entry.2 = 0) = true) :
    Invariant c opening ⟨stampOrder t.at_.now (some t.order) (install rows db),
      before ++ { t with phase := .committed tbl } :: after⟩ := by
  have own : t ∈ before ++ t :: after := by simp
  have held : Held tbl rows db := by simpa [stamped, Phase.pending, Phase.rows] using valid.held t own
  have known : ∀ entry ∈ tbl, t.order ∈ db.newOrder.map NewOrder.id := by
    simpa [stamped, Phase.pending] using valid.known t own
  have free : ∀ u ∈ before ++ after, ∀ row ∈ rows, ∀ other ∈ u.phase.rows, row.id ≠ other.id := by
    simpa only [stamped, Phase.rows] using (apart_middle.mp valid.apart).1
  have others : ∀ u ∈ before ++ after, u ∈ before ++ t :: after := fun u member =>
    List.mem_append.mpr ((List.mem_append.mp member).imp_right (List.mem_cons_of_mem _))
  constructor
  · exact (valid.keys.recount held.recounted).stamp _ _
  · intro u member
    rcases List.mem_cons.mp (List.perm_middle.mem_iff.mp member) with rfl | other
    · exact held_nil
    · refine (valid.held u (others u other)).install fun row inside new isNew same => ?_
      exact free u other new isNew row inside same.symm
  · intro u member entry isEntry
    rw [stampOrder_ids]
    rcases List.mem_cons.mp (List.perm_middle.mem_iff.mp member) with rfl | other
    · simp [Phase.pending] at isEntry
    · exact valid.known u (others u other) entry isEntry
  · refine apart_middle.mpr ⟨?_, (apart_middle.mp valid.apart).2⟩
    intro u _ row none
    simp [Phase.rows] at none
  · intro row member
    obtain ⟨old,inside,rfl⟩ := List.mem_map.mp member
    have stock := valid.stock old inside
    have count := (held old inside).2
    have unbooked : takes t.phase.booked old.id = 0 := by
      rw [stamped]
      rfl
    simp only [List.map_append, List.map_cons, List.sum_append, List.sum_cons, unbooked] at stock
    simp only [List.map_append, List.map_cons, List.sum_append, List.sum_cons, booked_committed,
      written_id]
    push_cast at stock ⊢
    omega
  · have unique := valid.once
    have notTook : t.took = false := by simp [Task.took, stamped, Phase.booked]
    simp only [List.filter_append, List.filter_cons, notTook, List.map_append] at unique ⊢
    split
    next isTook =>
      have unfinished : isCompleted (some t.order) db = false := by
        by_contra completed
        rw [took_committed, still (by simpa using completed)] at isTook
        cases isTook
      rw [List.map_cons, List.nodup_middle, List.nodup_cons]
      refine ⟨fun again => ?_, by simpa using unique⟩
      rw [← List.map_append, ← List.filter_append] at again
      obtain ⟨u,member,same⟩ := List.mem_map.mp again
      obtain ⟨other,took⟩ := List.mem_filter.mp member
      have completed := valid.completed u (others u other) took
      rw [same, unfinished] at completed
      cases completed
    next => simpa using unique
  · intro u member took
    rcases List.mem_cons.mp (List.perm_middle.mem_iff.mp member) with rfl | other
    · obtain ⟨entry,isEntry,-⟩ := List.any_eq_true.mp took
      exact isCompleted_stamp (known entry isEntry)
    · exact isCompleted_mono (valid.completed u (others u other) took)

end

section
variable {c : Collation} {opening db : Db} {others : List Task} {t : Task} {statement : Statement}
  {phase : Phase}

/-- What one statement can do: end or refuse the work of the transaction, write the items,
stamp the order, or commit both. -/
theorem next_cases (runs : t.next others db statement = some phase) :
    (phase.rows = [] ∧ phase.pending = [] ∧ phase.booked = t.phase.booked ∧
      t.effect statement db = db) ∨
    (∃ after, statement = .updateItem ∧ t.phase = .passed ∧
      itemsLocked (completionTable t.at_.pick (some t.order) db) others = false ∧
      subtractOrder t.at_.pick (some t.order) db = .ok after ∧
      phase = .subtracted (completionTable t.at_.pick (some t.order) db)
        (updatedRows (completionTable t.at_.pick (some t.order) db) after)) ∨
    (∃ tbl rows, statement = .updateOrder ∧ t.phase = .subtracted tbl rows ∧
      phase = .stamped tbl rows) ∨
    (∃ tbl rows, statement = .commit ∧ t.phase = .stamped tbl rows ∧ phase = .committed tbl) := by
  unfold Task.next at runs
  split at runs
  next at_ =>
    refine .inl ?_
    cases runs
    simp only [Task.effect, at_]
    split <;> simp [Phase.rows, Phase.pending, Phase.booked]
  next at_ =>
    simp only at runs
    split at runs
    · cases runs
    next free =>
      split at runs
      next after done =>
        cases runs
        exact .inr (.inl ⟨after, rfl, at_, by simpa using free, done, rfl⟩)
      next =>
        cases runs
        refine .inl ⟨rfl, rfl, by rw [at_]; rfl, rfl⟩
  next tbl rows at_ =>
    split at runs
    · cases runs
    · cases runs
      exact .inr (.inr (.inl ⟨tbl, rows, rfl, at_, rfl⟩))
  next at_ =>
    cases runs
    exact .inl ⟨rfl, rfl, by rw [at_]; rfl, by simp only [Task.effect, at_]⟩
  next tbl rows at_ =>
    cases runs
    exact .inr (.inr (.inr ⟨tbl, rows, rfl, at_, rfl⟩))
  next => cases runs
  next uncommitted =>
    cases runs
    refine .inl ⟨rfl, rfl, ?_, rfl⟩
    cases at_ : t.phase with
    | committed tbl => exact absurd at_ (uncommitted tbl)
    | _ => rfl
  next => cases runs

theorem step_invariant (s : Server) (move : Nat × Statement) (still : StillOpen s move)
    (valid : Invariant c opening s) : Invariant c opening (step move s) := by
  obtain ⟨db,tasks⟩ := s
  obtain ⟨i,statement⟩ := move
  unfold step
  cases found : tasks[i]? with
  | none => exact valid
  | some t =>
    simp only
    cases runs : t.next (tasks.eraseIdx i) db statement with
    | none => exact valid
    | some phase =>
      obtain ⟨inside,isTask⟩ := List.getElem?_eq_some_iff.mp found
      have around : tasks = tasks.take i ++ t :: tasks.drop (i + 1) := by
        rw [← isTask, ← List.drop_eq_getElem_cons inside, List.take_append_drop]
      simp only
      rw [List.set_eq_take_append_cons_drop, if_pos inside]
      rw [List.eraseIdx_eq_take_drop_succ] at runs
      rw [around] at valid
      have free := (apart_middle.mp valid.apart).1
      rcases next_cases runs with ⟨noRows,nothing,uncommitted,same⟩ |
        ⟨after,rfl,at_,unlocked,done,rfl⟩ | ⟨tbl,rows,rfl,at_,rfl⟩ | ⟨tbl,rows,rfl,at_,rfl⟩
      · rw [same]
        refine valid.advance uncommitted ?_ ?_ ?_
        · rw [noRows, nothing]
          exact held_nil
        · simp [nothing]
        · simp [noRows]
      · refine valid.advance (by rw [at_]; rfl) (held_of_subtractOrder valid.keys done)
          (fun entry => order_of_entry valid.keys) ?_
        intro u member row updated other locked same
        refine Bool.eq_false_iff.mp unlocked (List.any_eq_true.mpr ⟨u, member, ?_⟩)
        exact List.any_eq_true.mpr ⟨other, locked, same ▸ (List.mem_filter.mp updated).2⟩
      · refine valid.advance (by rw [at_]; rfl) ?_ ?_ ?_
        · simpa [at_, Phase.pending, Phase.rows] using valid.held t (by simp)
        · simpa [at_, Phase.pending] using valid.known t (by simp)
        · simpa [at_, Phase.rows] using free
      · have effect : t.effect .commit db =
            stampOrder t.at_.now (some t.order) (install rows db) := by
          simp only [Task.effect, at_]
        rw [effect]
        refine valid.commit at_ fun completed => ?_
        simpa only [at_, Phase.pending] using still rfl t found completed

theorem Invariant.subtractedAtMostOnce {s : Server} (valid : Invariant c opening s) :
    SubtractedAtMostOnce opening s := by
  refine ⟨s.tasks.filter Task.took, List.mem_sublists.mpr List.filter_sublist, valid.once, ?_⟩
  intro row member
  rw [sum_filter_of_zero]
  · exact valid.stock row member
  · intro t _ notTook
    unfold takes
    cases found : t.phase.booked.find? (fun entry => entry.1 = row.id) with
    | none => rfl
    | some entry =>
      have zero := List.any_eq_false.mp notTook entry (List.mem_of_find?_eq_some found)
      simpa using zero

end

/-- In every interleaving in which a transaction that takes something commits only while
its order is not completed, no order is subtracted twice. -/
theorem run_subtracted_once (c : Collation) (db : Db) (valid : Integrity c db)
    (requests : List (Int × Occasion)) (moves : List (Nat × Statement))
    (still : Along step StillOpen moves (start db requests)) :
    SubtractedAtMostOnce db (run db requests moves) :=
  (execute_invariant (Invariant c db) step_invariant moves _ still
    (start_invariant valid requests)).subtractedAtMostOnce

def twoOfOne : List (Int × Occasion) := [(1, firstLine), (1, firstLine)]

def bothPass : List (Nat × Statement) :=
  [(0, .check), (1, .check), (0, .updateItem), (0, .updateOrder), (0, .commit),
   (1, .updateItem), (1, .updateOrder), (1, .commit)]

/-- Both threads pass the check before one of them has stamped the order. -/
theorem both_pass_subtracted_twice :
    seeded.item.map Item.countOnWarehouse = [189, 53, 456] ∧
    (run seeded twoOfOne bothPass).committed.item.map Item.countOnWarehouse = [135, 39, 306] ∧
    ¬SubtractedAtMostOnce seeded (run seeded twoOfOne bothPass) := by
  refine ⟨by decide, by decide, ?_⟩
  unfold SubtractedAtMostOnce
  decide

def firstRollsBack : List (Nat × Statement) :=
  [(0, .check), (1, .check), (0, .updateItem), (1, .updateItem), (0, .rollback),
   (1, .updateItem), (1, .updateOrder), (1, .commit)]

theorem rolled_back_subtracted_once :
    SubtractedAtMostOnce seeded (run seeded twoOfOne firstRollsBack) :=
  run_subtracted_once .binary seeded (by constructor <;> decide) twoOfOne firstRollsBack
    (by simp only [firstRollsBack, Along]; decide)

end PcCourse.ConcurrentCompletion
