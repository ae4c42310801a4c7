import PcCourse.Listings

/-! How long an order stays in the list of expired orders. An open order is compared with the
time, a completed one by the day of its completion. -/
namespace PcCourse

open Grouping Transition

def ListedExpired (now : Int) (id : Int) (db : Db) : Prop :=
  ∃ row ∈ (getExpiredOrders now db).rows, row.head? = some (.int id)

def perform (c : Collation) (called : Occasion × Update) (db : Db) : Db := called.2.apply c called.1 db

/-- A call that completes the order is not made on the day the order expires. -/
def SparesExpiry (c : Collation) (id : Int) (db : Db) (called : Occasion × Update) : Prop :=
  called.2 = .completeOrder (some id) → (∃ after, called.2.exec c called.1 db = .ok after) →
    ∀ o ∈ db.newOrder, o.id = id → o.dateOfCompletion = none → day called.1.now ≠ o.dateOfExpire

/-- What can have become of an order at the end of a run: it is as it was, or it was open and
one of the calls has completed it. -/
structure Becomes (c : Collation) (calls : List (Occasion × Update)) (db : Db) (o after : NewOrder) :
    Prop where
  row : after = o ∨ o.dateOfCompletion = none ∧ ∃ called ∈ calls,
    after = { o with dateOfCompletion := some (day called.1.now) }
  spared : Along (perform c) (SparesExpiry c o.id) calls db ↔
    (o.dateOfCompletion = none → after.dateOfCompletion ≠ some o.dateOfExpire)

section
variable {c : Collation} {db after : Db} {at_ : Occasion} {u : Update} {o : NewOrder} {id now : Int}

theorem listedExpired_iff (valid : Integrity c db) :
    ListedExpired now id db ↔ ∃ o ∈ db.newOrder, o.id = id ∧ isExpired now o = true := by
  simp only [ListedExpired, getExpiredOrders, List.mem_map, List.mem_filter]
  constructor
  · rintro ⟨_,⟨row,⟨joined,expired⟩,rfl⟩,head⟩
    have order : row.1 ∈ db.newOrder := by
      rw [← ordersOfCustomers_fst valid]
      exact List.mem_map_of_mem joined
    exact ⟨row.1, order, SqlValue.int.inj (Option.some.inj head), expired⟩
  · rintro ⟨o,order,rfl,expired⟩
    rw [← ordersOfCustomers_fst valid] at order
    obtain ⟨row,joined,rfl⟩ := List.mem_map.mp order
    exact ⟨_, ⟨row, ⟨joined, expired⟩, rfl⟩, rfl⟩

theorem exec_order_origin (done : u.exec c at_ db = .ok after) (member : o ∈ after.newOrder) :
    (o ∈ db.newOrder ∧ (u = .completeOrder (some o.id) → isCompleted (some o.id) db = true)) ∨
    (∃ before ∈ db.newOrder, isCompleted (some o.id) db = false ∧ u = .completeOrder (some o.id) ∧
      o = { before with dateOfCompletion := some (day at_.now) }) ∨
    o.id = db.next.newOrder := by
  cases u with
  | deleteUser login =>
    cases done
    exact .inl ⟨member, nofun⟩
  | createUser login pwd sname name pname rank =>
    obtain ⟨l,p,r,-,-,-,-,-,rfl⟩ := createUser_eq_ok done
    exact .inl ⟨member, nofun⟩
  | updateUser login sname name pname rank =>
    obtain ⟨r,-,-,rfl⟩ := updateUser_eq_ok done
    exact .inl ⟨member, nofun⟩
  | createCustomer tel sname name pname =>
    obtain ⟨t,-,-,rfl⟩ := createCustomer_eq_ok done
    exact .inl ⟨member, nofun⟩
  | deleteCustomer tel =>
    cases done
    exact .inl ⟨List.mem_of_mem_filter member, nofun⟩
  | addItem name cost count distributor type description =>
    obtain ⟨row,-,-,-,-,rfl⟩ := addItem_eq_ok done
    exact .inl ⟨member, nofun⟩
  | addItemCount id appended =>
    obtain ⟨item,rfl,-⟩ := addItemCount_eq_ok done
    exact .inl ⟨member, nofun⟩
  | addOrderedItem order item count =>
    obtain ⟨line,-,-,-,-,-,-,rfl⟩ := addOrderedItem_eq_ok done
    exact .inl ⟨member, nofun⟩
  | addOrder tel expire =>
    obtain ⟨new,fresh,-,-,-,-,-,rfl⟩ := addOrder_eq_ok done
    rcases List.mem_append.mp member with old | added
    · exact .inl ⟨old, nofun⟩
    · exact .inr (.inr (List.mem_singleton.mp added ▸ fresh))
  | completeOrder id =>
    rcases completeOrder_eq_ok done with ⟨completed,rfl⟩ | ⟨uncompleted,item,rfl,-⟩
    · refine .inl ⟨member, fun same => ?_⟩
      cases same
      exact completed
    · obtain ⟨before,inside,rfl⟩ := List.mem_map.mp member
      by_cases same : some before.id = id
      · rw [if_pos same]
        subst same
        exact .inr (.inl ⟨before, inside, uncompleted, rfl, rfl⟩)
      · rw [if_neg same]
        refine .inl ⟨inside, fun equal => ?_⟩
        cases equal
        exact absurd rfl same

theorem exec_next_le (done : u.exec c at_ db = .ok after) : db.next.newOrder ≤ after.next.newOrder := by
  cases u with
  | deleteUser login => cases done; exact Int.le_refl _
  | createUser login pwd sname name pname rank =>
    obtain ⟨l,p,r,-,-,-,-,-,rfl⟩ := createUser_eq_ok done
    exact Int.le_refl _
  | updateUser login sname name pname rank =>
    obtain ⟨r,-,-,rfl⟩ := updateUser_eq_ok done
    exact Int.le_refl _
  | createCustomer tel sname name pname =>
    obtain ⟨t,-,-,rfl⟩ := createCustomer_eq_ok done
    exact Int.le_refl _
  | deleteCustomer tel => cases done; exact Int.le_refl _
  | addItem name cost count distributor type description =>
    obtain ⟨row,-,-,-,-,rfl⟩ := addItem_eq_ok done
    exact Int.le_refl _
  | addItemCount id appended =>
    obtain ⟨item,rfl,-⟩ := addItemCount_eq_ok done
    exact Int.le_refl _
  | addOrderedItem order item count =>
    obtain ⟨line,-,-,-,-,-,-,rfl⟩ := addOrderedItem_eq_ok done
    exact Int.le_refl _
  | addOrder tel expire =>
    obtain ⟨new,fresh,-,-,-,-,-,rfl⟩ := addOrder_eq_ok done
    rw [← fresh]
    exact Int.le_of_lt (Int.lt_succ _)
  | completeOrder id =>
    rcases completeOrder_eq_ok done with ⟨-,rfl⟩ | ⟨-,item,rfl,-⟩ <;> exact Int.le_refl _

theorem isCompleted_eq (valid : Integrity c db) (member : o ∈ db.newOrder) :
    isCompleted (some o.id) db = o.dateOfCompletion.isSome := by
  have only : ∀ row ∈ db.newOrder, row.id = o.id → row = o := fun row inside same =>
    eq_of_id valid.orders inside member same
  rw [Bool.eq_iff_iff, isCompleted, List.any_eq_true]
  simp only [decide_eq_true_eq, Option.some.injEq]
  constructor
  · rintro ⟨row,inside,same,completed⟩
    exact only row inside same ▸ completed
  · exact fun completed => ⟨o, member, rfl, completed⟩

theorem spares_of_kept (valid : Integrity c db) {called : Occasion × Update} (member : o ∈ db.newOrder)
    (kept : called.2 = .completeOrder (some o.id) → (∃ after, called.2.exec c called.1 db = .ok after) →
      isCompleted (some o.id) db = true) : SparesExpiry c o.id db called := by
  intro completes ran row inside same open_
  have completed := kept completes ran
  rw [isCompleted_eq valid member, ← eq_of_id valid.orders inside member same, open_] at completed
  cases completed

theorem Becomes.kept {calls : List (Occasion × Update)} {called : Occasion × Update} {final : NewOrder}
    (valid : Integrity c db) (member : o ∈ db.newOrder)
    (becomes : Becomes c calls (perform c called db) o final)
    (kept : called.2 = .completeOrder (some o.id) → (∃ after, called.2.exec c called.1 db = .ok after) →
      isCompleted (some o.id) db = true) : Becomes c (called :: calls) db o final := by
  refine ⟨?_, ?_⟩
  · rcases becomes.row with same | ⟨open_,later,inside,completed⟩
    · exact .inl same
    · exact .inr ⟨open_, later, List.mem_cons_of_mem _ inside, completed⟩
  · rw [← becomes.spared]
    exact ⟨fun along => along.2, fun along => ⟨spares_of_kept valid member kept, along⟩⟩

theorem Becomes.completed {calls : List (Occasion × Update)} {called : Occasion × Update}
    {final : NewOrder} (valid : Integrity c db) (member : o ∈ db.newOrder)
    (open_ : o.dateOfCompletion = none) (completes : called.2 = .completeOrder (some o.id))
    (ran : ∃ after, called.2.exec c called.1 db = .ok after)
    (becomes : Becomes c calls (perform c called db)
      { o with dateOfCompletion := some (day called.1.now) } final) :
    Becomes c (called :: calls) db o final := by
  have row : final = { o with dateOfCompletion := some (day called.1.now) } := by
    rcases becomes.row with same | ⟨none_,-⟩
    · exact same
    · cases none_
  have rest : Along (perform c) (SparesExpiry c o.id) calls (perform c called db) :=
    becomes.spared.mpr fun none_ => by cases none_
  refine ⟨.inr ⟨open_, called, List.mem_cons_self, row⟩, ?_⟩
  rw [row]
  constructor
  · rintro ⟨spares,-⟩ _ same
    exact spares completes ran o member rfl open_ (Option.some.inj same)
  · intro other
    refine ⟨fun _ _ found inside same _ equal => ?_, rest⟩
    cases eq_of_id valid.orders inside member same
    exact other open_ (congrArg some equal)

/-- Every old order at the end of a run was there before. The induction is on the calls. -/
theorem run_becomes (valid : Integrity c db) (calls : List (Occasion × Update)) {final : NewOrder}
    (member : final ∈ (execute (perform c) calls db).newOrder) (old : final.id < db.next.newOrder) :
    ∃ o ∈ db.newOrder, o.id = final.id ∧ Becomes c calls db o final := by
  induction calls generalizing db with
  | nil =>
    refine ⟨final, member, rfl, .inl rfl, fun _ open_ same => ?_, fun _ => trivial⟩
    rw [open_] at same
    cases same
  | cons called calls ih =>
    cases ran : called.2.exec c called.1 db with
    | error fault =>
      have same : perform c called db = db := by simp only [perform, Update.apply, ran]
      obtain ⟨o,inside,id_,becomes⟩ := ih (by rwa [same]) member (by rwa [same])
      rw [same] at inside
      refine ⟨o, inside, id_, becomes.kept valid inside ?_⟩
      rintro - ⟨after,done⟩
      rw [ran] at done
      cases done
    | ok after =>
      have next : perform c called db = after := by simp only [perform, Update.apply, ran]
      have bound := exec_next_le ran
      obtain ⟨o,inside,id_,becomes⟩ := ih (next ▸ Update.exec_integrity valid ran) member
        (by rw [next]; omega)
      rw [next] at inside
      rcases exec_order_origin ran inside with ⟨before,kept⟩ | ⟨before,there,uncompleted,completes,rfl⟩ | fresh
      · exact ⟨o, before, id_, becomes.kept valid before fun completes _ => kept completes⟩
      · refine ⟨before, there, id_, .completed valid there ?_ completes ⟨after, ran⟩ becomes⟩
        have none_ := (isCompleted_eq valid there).symm.trans uncompleted
        simpa using none_
      · omega

theorem day_ge {expire : Int} (late : now > expire * 86400) : expire ≤ day now := by
  rw [day]
  omega

end

/-- An order that is listed and not deleted is listed at every later time, whatever has been
called between, exactly when no call has completed it on the day it expires. -/
theorem listed_stays_iff (c : Collation) {db : Db} (valid : Integrity c db) {first last : Int}
    (ordered : first ≤ last) (calls : List (Occasion × Update))
    (between : ∀ called ∈ calls, first ≤ called.1.now ∧ called.1.now ≤ last) {id : Int}
    (listed : ListedExpired first id db)
    (kept : id ∈ (execute (perform c) calls db).newOrder.map NewOrder.id) :
    ListedExpired last id (execute (perform c) calls db) ↔ Along (perform c) (SparesExpiry c id) calls db := by
  obtain ⟨o,inside,rfl,expired⟩ := (listedExpired_iff valid).mp listed
  have after : Integrity c (execute (perform c) calls db) :=
    execute_preserves (Integrity c) (fun _ called valid => Update.apply_integrity valid called.1 called.2)
      calls db valid
  obtain ⟨final,member,same⟩ := List.mem_map.mp kept
  obtain ⟨before,there,equal,becomes⟩ := run_becomes valid calls member
    (same ▸ valid.freshOrder o inside)
  cases eq_of_id valid.orders there inside (equal.trans same)
  rw [becomes.spared]
  have only : ListedExpired last o.id (execute (perform c) calls db) ↔ isExpired last final = true := by
    rw [listedExpired_iff after]
    constructor
    · rintro ⟨row,found,id_,expired⟩
      exact eq_of_id after.orders found member (id_.trans same.symm) ▸ expired
    · exact fun expired => ⟨final, member, same, expired⟩
  rw [only]
  rcases becomes.row with unchanged | ⟨open_,called,among,completed⟩
  · have spared : o.dateOfCompletion = none → o.dateOfCompletion ≠ some o.dateOfExpire := by
      intro open_ same
      rw [open_] at same
      cases same
    rw [unchanged]
    refine ⟨fun _ => spared, fun _ => ?_⟩
    unfold isExpired at expired ⊢
    split at expired
    · exact expired
    · simp only [decide_eq_true_eq] at expired ⊢
      omega
  · rw [completed]
    simp only [isExpired, open_, decide_eq_true_eq] at expired ⊢
    have late : called.1.now > o.dateOfExpire * 86400 := by
      have := (between called among).1
      omega
    have bound := day_ge late
    simp only [ne_eq, Option.some.injEq, forall_const]
    omega

instance (now id : Int) (db : Db) : Decidable (ListedExpired now id db) :=
  inferInstanceAs (Decidable (∃ row ∈ _, _))

def completionAt (now : Int) : Occasion × Update := (⟨now, .first⟩, .completeOrder (some 1))

/-- The seeded order expires on day 20041; completed a day later, it stays in the list. -/
theorem completed_late_stays :
    ListedExpired (20042 * 86400 + 3) 1
      (execute (perform .binary) [completionAt (20042 * 86400)] seeded) := by
  apply (listed_stays_iff .binary seeded_integrity
    (by decide : (20041 * 86400 + 1 : Int) ≤ 20042 * 86400 + 3) _ ?_
    (by decide) (by decide)).mpr
  · refine ⟨?_, trivial⟩
    rintro - - o member - - same
    cases List.mem_singleton.mp member
    exact absurd same (by decide)
  · intro called member
    cases List.mem_singleton.mp member
    decide

/-- Completed on the day it expires, it is listed a second before and not a second after. -/
theorem completed_on_expiry_unlisted :
    ListedExpired (20041 * 86400 + 1) 1 seeded ∧
    1 ∈ (execute (perform .binary) [completionAt (20041 * 86400 + 2)] seeded).newOrder.map NewOrder.id ∧
    ¬ListedExpired (20041 * 86400 + 3) 1
      (execute (perform .binary) [completionAt (20041 * 86400 + 2)] seeded) := by
  decide

end PcCourse
